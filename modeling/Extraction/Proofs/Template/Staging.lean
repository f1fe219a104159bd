import Extraction.Proofs.Template.Rendering

/-!
# What rendering leaves for later

As long as no opening brace is put in, a rendered template can be read exactly
when the template can, and its actions are those that name what only a run
knows. Neither filling an action nor trimming the ends makes or breaks a pair of
braces, and rendering once more changes nothing.
-/

namespace Extraction.Template

open Text (AllBlank)

/-- Whether a parameter is known only when the extractor is run. -/
def Parameter.isPerRun : Parameter → Bool
  | sourceFolder | outputFile => true
  | executable | additionalParameters => false

def Segment.isAction : Segment → Bool
  | .text _ => false
  | .action _ _ => true

/-- Whether a segment is an action for what only a run knows. -/
def Segment.isPerRun : Segment → Bool
  | .text _ => false
  | .action parameter _ => parameter.isPerRun

def Action.isPerRun (a : Action) : Bool := a.parameter.isPerRun

def Action.segment (a : Action) : Segment := .action a.parameter a.written

/-- The actions of a layout in their order. -/
def Layout.actions (l : Layout) : List Action := l.stretches.map Stretch.action

/-- A text is written in a layout with these actions. -/
def HasActions (s : List Char) (actions : List Action) : Prop :=
  ∃ l : Layout, l.written = s ∧ l.actions = actions

variable {s w : List Char} {a : Action} {actions : List Action}

theorem hasActions_nil_iff : HasActions s [] ↔ ¬ HasPair '\x7b' s := by
  constructor
  · rintro ⟨⟨stretches, rest, hrest⟩, rfl, hactions⟩
    obtain rfl := List.map_eq_nil_iff.mp hactions
    exact hrest
  · intro h
    exact ⟨⟨[], s, h⟩, rfl, rfl⟩

/-- The first action stands behind the text of its stretch. -/
theorem hasActions_cons_iff : HasActions s (a :: actions) ↔
    ∃ text after, s = text ++ a.written ++ after ∧ ¬ HasPair '\x7b' text ∧
      text.getLast? ≠ some '\x7b' ∧ HasActions after actions := by
  constructor
  · rintro ⟨⟨stretches, rest, hrest⟩, rfl, hactions⟩
    cases stretches with
    | nil => cases hactions
    | cons first more =>
        obtain ⟨rfl, rfl⟩ := List.cons.inj hactions
        refine ⟨first.text, _, ?_, first.not_hasPair, first.getLast_ne, ⟨more, rest, hrest⟩, rfl,
          rfl⟩
        simp [Layout.written, Stretch.written]
  · rintro ⟨text, after, rfl, hpair, hlast, l, rfl, rfl⟩
    refine ⟨⟨⟨text, a, hpair, hlast⟩ :: l.stretches, l.rest, l.not_hasPair⟩, ?_, rfl⟩
    simp [Layout.written, Stretch.written]

section Seams

/-- Text that neither holds a pair of opening braces nor ends with one makes no difference in
front. -/
theorem HasActions.append_left (h : HasActions s actions) (hpair : ¬ HasPair '\x7b' w)
    (hlast : w.getLast? ≠ some '\x7b') : HasActions (w ++ s) actions := by
  cases actions with
  | nil =>
      rw [hasActions_nil_iff] at h ⊢
      exact not_hasPair_append hpair hlast h
  | cons a actions =>
      obtain ⟨text, after, rfl, htext, hend, hafter⟩ := hasActions_cons_iff.mp h
      refine hasActions_cons_iff.mpr ⟨w ++ text, after, by simp, ?_, ?_, hafter⟩
      · exact not_hasPair_append hpair hlast htext
      · cases text with
        | nil => rwa [List.append_nil]
        | cons c text => simpa [List.getLast?_append, List.getLast?_cons] using hend

theorem HasActions.of_cons {c : Char} (h : HasActions (c :: s) actions) (hc : c ≠ '\x7b') :
    HasActions s actions := by
  cases actions with
  | nil =>
      rw [hasActions_nil_iff] at h ⊢
      rwa [hasPair_cons_of_ne hc] at h
  | cons a actions =>
      obtain ⟨text, after, heq, htext, hlast, hafter⟩ := hasActions_cons_iff.mp h
      cases text with
      | nil => exact absurd (List.head_eq_of_cons_eq heq) hc
      | cons d text =>
          obtain ⟨rfl, rfl⟩ := List.cons.inj heq
          refine hasActions_cons_iff.mpr ⟨text, after, rfl, ?_, ?_, hafter⟩
          · rwa [hasPair_cons_of_ne hc] at htext
          · cases text with
            | nil => simp
            | cons e text => rwa [List.getLast?_cons_cons] at hlast

/-- Text without opening braces can be put in front or taken away there. -/
theorem hasActions_append_left_iff (hw : '\x7b' ∉ w) :
    HasActions (w ++ s) actions ↔ HasActions s actions := by
  constructor
  · intro h
    induction w with
    | nil => exact h
    | cons c w ih =>
        obtain ⟨hc, hw⟩ := not_or.mp (mt List.mem_cons.mpr hw)
        exact ih hw (h.of_cons (Ne.symm hc))
  · intro h
    exact h.append_left (not_hasPair_of_not_mem hw) fun hlast => hw (List.mem_of_getLast? hlast)

/-- An action does not end within a text without closing braces. -/
theorem exists_eq_append_of_action {text after : List Char} (hw : '\x7d' ∉ w)
    (h : s ++ w = text ++ a.written ++ after) :
    ∃ between, s = text ++ a.written ++ between ∧ after = between ++ w := by
  rcases List.append_eq_append_iff.mp h with ⟨cut, hcut, rfl⟩ | ⟨between, rfl, rfl⟩
  · cases cut with
    | nil => exact ⟨[], by simpa using hcut.symm, rfl⟩
    | cons c cut =>
        have hlast : (c :: cut).getLast? = some '\x7d' := by
          have hends := congrArg List.getLast? hcut
          rw [List.getLast?_append, List.getLast?_append, a.getLast?_written] at hends
          simpa [List.getLast?_cons] using hends.symm
        exact absurd (List.mem_append_left _ (List.mem_of_getLast? hlast)) hw
  · exact ⟨between, rfl, rfl⟩

/-- Text without any braces can be put behind or taken away there. -/
theorem hasActions_append_right_iff (hopening : '\x7b' ∉ w) (hclosing : '\x7d' ∉ w) :
    HasActions (s ++ w) actions ↔ HasActions s actions := by
  induction actions generalizing s with
  | nil =>
      rw [hasActions_nil_iff, hasActions_nil_iff]
      constructor
      · intro h hs
        exact h (List.IsInfix.trans hs (List.prefix_append s w).isInfix)
      · intro h
        exact not_hasPair_append_of_not_mem h hopening
  | cons a actions ih =>
      rw [hasActions_cons_iff, hasActions_cons_iff]
      constructor
      · rintro ⟨text, after, heq, htext, hlast, hafter⟩
        obtain ⟨between, rfl, rfl⟩ := exists_eq_append_of_action hclosing heq
        exact ⟨text, between, rfl, htext, hlast, ih.mp hafter⟩
      · rintro ⟨text, after, rfl, htext, hlast, hafter⟩
        exact ⟨text, after ++ w, List.append_assoc .., htext, hlast, ih.mpr hafter⟩

theorem opening_not_mem_of_allBlank (hw : AllBlank w) : '\x7b' ∉ w :=
  fun h => absurd (hw _ h) (by decide)

/-- Trimming changes no action, nor does it make a text one that can be read. -/
theorem hasActions_trim_iff : HasActions (Text.trim s) actions ↔ HasActions s actions := by
  obtain ⟨w, w', hw, hw', hs⟩ := Text.exists_append_trim_append s
  have hbehind :
      HasActions (w ++ Text.trim s ++ w') actions ↔ HasActions (w ++ Text.trim s) actions :=
    hasActions_append_right_iff (opening_not_mem_of_allBlank hw') (closing_not_mem_of_allBlank hw')
  rw [← hs] at hbehind
  rw [hbehind, hasActions_append_left_iff (opening_not_mem_of_allBlank hw)]

end Seams

section Filling

variable {executable arguments : List Char}

theorem filter_textSegment {select : Segment → Bool} (htext : ∀ chars, select (.text chars) = false)
    (chars : List Char) : (textSegment chars).filter select = [] := by
  cases chars <;> simp [textSegment, htext]

/-- Where texts do not count, the actions are left of the segments. -/
theorem Layout.filter_segments (l : Layout) {select : Segment → Bool}
    (htext : ∀ chars, select (.text chars) = false) :
    l.segments.filter select = (l.actions.map Action.segment).filter select := by
  obtain ⟨stretches, rest, hrest⟩ := l
  induction stretches with
  | nil => exact filter_textSegment htext rest
  | cons first more ih =>
      have hsegments : Layout.segments ⟨first :: more, rest, hrest⟩ = textSegment first.text ++
          first.action.segment :: Layout.segments ⟨more, rest, hrest⟩ := by
        simp [Layout.segments, Stretch.segments, Action.segment]
      rw [hsegments, List.filter_append, filter_textSegment htext, List.nil_append,
        List.filter_cons, ih]
      simp [Layout.actions, List.filter_cons]

theorem Action.filled_of_isPerRun (h : a.isPerRun = true) :
    a.filled executable arguments = a.written := by
  unfold Action.isPerRun at h
  unfold Action.filled
  cases hparameter : a.parameter with
  | sourceFolder => rfl
  | outputFile => rfl
  | _ => rw [hparameter] at h; cases h

theorem Action.opening_not_mem_filled (hexecutable : '\x7b' ∉ executable)
    (harguments : '\x7b' ∉ arguments) (h : a.isPerRun = false) :
    '\x7b' ∉ a.filled executable arguments := by
  unfold Action.isPerRun at h
  unfold Action.filled
  cases hparameter : a.parameter with
  | executable => exact hexecutable
  | additionalParameters => exact harguments
  | _ => rw [hparameter] at h; cases h

/-- Without an opening brace in what is filled in, the actions are left that name what only a run
knows. -/
theorem Layout.hasActions_filled (l : Layout) (hexecutable : '\x7b' ∉ executable)
    (harguments : '\x7b' ∉ arguments) :
    HasActions (l.filled executable arguments) (l.actions.filter Action.isPerRun) := by
  obtain ⟨stretches, rest, hrest⟩ := l
  induction stretches with
  | nil => exact hasActions_nil_iff.mpr hrest
  | cons first more ih =>
      have hfilled : Layout.filled executable arguments ⟨first :: more, rest, hrest⟩ =
          first.text ++ (first.action.filled executable arguments ++
            Layout.filled executable arguments ⟨more, rest, hrest⟩) := by
        simp [Layout.filled, Stretch.filled]
      have hactions : Layout.actions ⟨first :: more, rest, hrest⟩ =
          first.action :: Layout.actions ⟨more, rest, hrest⟩ := rfl
      rw [hfilled, hactions]
      cases hperRun : first.action.isPerRun with
      | true =>
          rw [Action.filled_of_isPerRun hperRun, List.filter_cons_of_pos hperRun,
            ← List.append_assoc]
          exact hasActions_cons_iff.mpr
            ⟨first.text, _, rfl, first.not_hasPair, first.getLast_ne, ih⟩
      | false =>
          -- The texts on both sides of the action meet what is put between them.
          rw [List.filter_cons_of_neg (by simp [hperRun])]
          refine HasActions.append_left ?_ first.not_hasPair first.getLast_ne
          exact (hasActions_append_left_iff
            (Action.opening_not_mem_filled hexecutable harguments hperRun)).mpr ih

/-- There is nothing to fill where only a run knows what all actions name. -/
theorem Layout.filled_of_forall_isPerRun {l : Layout} (h : ∀ a ∈ l.actions, a.isPerRun = true)
    (executable arguments : List Char) : l.filled executable arguments = l.written := by
  obtain ⟨stretches, rest, hrest⟩ := l
  have hstretches : ∀ stretch ∈ stretches,
      stretch.filled executable arguments = stretch.written := by
    intro stretch hmem
    rw [Stretch.filled, Action.filled_of_isPerRun (h _ (List.mem_map_of_mem hmem)), Stretch.written]
  simp only [Layout.filled, Layout.written, List.flatMap_def, List.map_congr_left hstretches]

end Filling

section Reading

variable {t : String} {segments : List Segment}

theorem Layout.filter_isAction_segments (l : Layout) :
    l.segments.filter Segment.isAction = l.actions.map Action.segment := by
  rw [l.filter_segments fun _ => rfl, List.filter_eq_self]
  intro segment hsegment
  obtain ⟨a, _, rfl⟩ := List.mem_map.mp hsegment
  rfl

theorem Layout.filter_isPerRun_segments (l : Layout) :
    l.segments.filter Segment.isPerRun = (l.actions.filter Action.isPerRun).map Action.segment := by
  rw [l.filter_segments fun _ => rfl, List.filter_map]
  rfl

/-- A text with actions is read, and its segments that are actions are these. -/
theorem HasActions.exists_parse (h : HasActions s actions) : ∃ segments, parse s = .ok segments ∧
    segments.filter Segment.isAction = actions.map Action.segment := by
  obtain ⟨l, rfl, rfl⟩ := h
  exact ⟨l.segments, parse_written l, l.filter_isAction_segments⟩

theorem check_eq_ok_iff_hasActions : check t = .ok () ↔ ∃ actions, HasActions t.toList actions := by
  rw [check_eq_ok_iff]
  constructor
  · rintro ⟨segments, h⟩
    obtain ⟨l, hl⟩ := exists_layout_of_parse h
    exact ⟨l.actions, l, hl, rfl⟩
  · rintro ⟨actions, h⟩
    obtain ⟨segments, hparse, _⟩ := h.exists_parse
    exact ⟨segments, hparse⟩

theorem toList_render_of_refused (h : check t ≠ .ok ()) (executable arguments : String) :
    (render t executable arguments).toList = Text.trim t.toList := by
  cases hparse : parse t.toList with
  | ok segments => exact absurd (check_eq_ok_iff.mpr ⟨segments, hparse⟩) h
  | error fault => exact toList_render_of_error hparse executable arguments

/-- A trimmed text in which only a run knows what all actions name is rendered as it is. -/
theorem toList_render_of_forall_isPerRun (h : HasActions t.toList actions)
    (hperRun : ∀ a ∈ actions, a.isPerRun = true) (executable arguments : String) :
    (render t executable arguments).toList = Text.trim t.toList := by
  obtain ⟨l, hl, rfl⟩ := h
  rw [toList_render_of_ok (hl ▸ parse_written l), l.flatMap_render_segments,
    Layout.filled_of_forall_isPerRun hperRun, hl]

end Reading

section Stages

variable {t executable arguments : String}

/-- What a rendered template has for actions. -/
theorem hasActions_render (hexecutable : '\x7b' ∉ executable.toList)
    (harguments : '\x7b' ∉ arguments.toList) (l : Layout) (hl : l.written = t.toList) :
    HasActions (render t executable arguments).toList (l.actions.filter Action.isPerRun) := by
  rw [toList_render_of_ok (hl ▸ parse_written l), l.flatMap_render_segments, hasActions_trim_iff]
  exact l.hasActions_filled hexecutable harguments

/-- Trimmed text stays trimmed. -/
theorem trim_toList_render (t executable arguments : String) :
    Text.trim (render t executable arguments).toList = (render t executable arguments).toList := by
  rw [render, String.toList_ofList, Text.trim_trim]

theorem check_render_eq_ok_iff (hexecutable : '\x7b' ∉ executable.toList)
    (harguments : '\x7b' ∉ arguments.toList) :
    check (render t executable arguments) = .ok () ↔ check t = .ok () := by
  constructor
  · intro h
    by_cases hcheck : check t = .ok ()
    · exact hcheck
    · rw [check_eq_ok_iff_hasActions, toList_render_of_refused hcheck] at h
      simp only [hasActions_trim_iff] at h
      exact check_eq_ok_iff_hasActions.mpr h
  · intro h
    obtain ⟨_, l, hl, _⟩ := check_eq_ok_iff_hasActions.mp h
    exact check_eq_ok_iff_hasActions.mpr ⟨_, hasActions_render hexecutable harguments l hl⟩

/-- Rendering a rendered template changes nothing, whatever is put in the second time. -/
theorem render_render (hexecutable : '\x7b' ∉ executable.toList)
    (harguments : '\x7b' ∉ arguments.toList) (executable' arguments' : String) :
    render (render t executable arguments) executable' arguments' =
      render t executable arguments := by
  apply String.toList_inj.mp
  by_cases hcheck : check t = .ok ()
  · obtain ⟨_, l, hl, _⟩ := check_eq_ok_iff_hasActions.mp hcheck
    have hactions := hasActions_render hexecutable harguments l hl
    rw [toList_render_of_forall_isPerRun hactions, trim_toList_render]
    intro a ha
    exact (List.mem_filter.mp ha).2
  · have hrefused := mt (check_render_eq_ok_iff hexecutable harguments).mp hcheck
    rw [toList_render_of_refused hrefused, trim_toList_render]

/-- Templates can be rendered in stages. With no opening brace in the executable and the additional
arguments, a rendered template can be read exactly when the template can; its actions are then those
of the template that name what only a run knows, as they were written. And whether or not it can be
read, rendering it again leaves it as it is. -/
theorem render_in_stages (t : String) {executable arguments : String}
    (hexecutable : '\x7b' ∉ executable.toList) (harguments : '\x7b' ∉ arguments.toList) :
    (check (render t executable arguments) = .ok () ↔ check t = .ok ()) ∧
    (∀ segments, parse t.toList = .ok segments →
      ∃ left, parse (render t executable arguments).toList = .ok left ∧
        left.filter Segment.isAction = segments.filter Segment.isPerRun) ∧
    ∀ executable' arguments', render (render t executable arguments) executable' arguments' =
      render t executable arguments := by
  refine ⟨check_render_eq_ok_iff hexecutable harguments, ?_, render_render hexecutable harguments⟩
  intro segments hsegments
  obtain ⟨l, hl⟩ := exists_layout_of_parse hsegments
  have hparse := parse_written l
  rw [hl, hsegments, Except.ok.injEq] at hparse
  obtain ⟨left, hleft, hactions⟩ := (hasActions_render hexecutable harguments l hl).exists_parse
  exact ⟨left, hleft, by rw [hactions, hparse, l.filter_isPerRun_segments]⟩

/-- Single braces on both sides of actions that are filled. -/
def bracesBeside : String :=
  "\t\x7b \x7b\x7b.AdditionalParameters\x7d\x7d\x7bx\x7b\x7b .SourceFolder\x7d\x7d" ++
    "\x7b\x7b.Executable\x7d\x7d\x7b "

theorem exists_layout_bracesBeside :
    ∃ l : Layout, l.written = bracesBeside.toList ∧ l.segments.filter Segment.isPerRun =
      [.action .sourceFolder "\x7b\x7b .SourceFolder\x7d\x7d".toList] := by
  refine ⟨{
    stretches := [
      ⟨['\t', '\x7b', ' '], ⟨[], .additionalParameters, [], by decide, by decide⟩, by decide,
        by decide⟩,
      ⟨['\x7b', 'x'], ⟨[' '], .sourceFolder, [], by decide, by decide⟩, by decide, by decide⟩,
      ⟨[], ⟨[], .executable, [], by decide, by decide⟩, by decide, by decide⟩]
    rest := ['\x7b', ' ']
    not_hasPair := by decide }, by decide, by decide⟩

theorem render_in_stages_bracesBeside :
    '\x7b' ∉ "".toList ∧ check (render bracesBeside "" "") = .ok () ∧
      (∃ left, parse (render bracesBeside "" "").toList = .ok left ∧
        left.filter Segment.isAction =
          [.action .sourceFolder "\x7b\x7b .SourceFolder\x7d\x7d".toList]) ∧
      render (render bracesBeside "" "") "\x7b\x7b.OutputFile\x7d\x7d" "\x7b" =
        render bracesBeside "" "" := by
  have hempty : '\x7b' ∉ "".toList := by decide
  obtain ⟨l, hwritten, hperRun⟩ := exists_layout_bracesBeside
  have hparse := parse_written l
  rw [hwritten] at hparse
  obtain ⟨hcheck, hactions, hagain⟩ := render_in_stages bracesBeside hempty hempty
  obtain ⟨left, hleft, heq⟩ := hactions _ hparse
  exact ⟨hempty, hcheck.mpr (check_eq_ok_iff.mpr ⟨_, hparse⟩), ⟨left, hleft, heq.trans hperRun⟩,
    hagain _ _⟩

end Stages

end Extraction.Template
